import AddonBinding.Proofs.DecodeHelpers
import AddonBinding.Proofs.Naming

namespace AddonBinding

namespace Source

-- The helpers among the items of a source.
def Item.functions : Item → List Function
  | .helpers functions => functions
  | _                  => []

namespace Helper

open Program

variable {policy : CoercionPolicy} {h : Helper} {pre post : List Helper}
  {types : List ScalarType} {t : ScalarType}

theorem camelName_injective : Function.Injective ScalarType.camelName := by
  have h : ∀ s ∈ ScalarType.all, ∀ t ∈ ScalarType.all, s.camelName = t.camelName → s = t := by
    decide +kernel
  intro s t
  exact h s s.mem_all t t.mem_all

theorem head_name (h : Helper) : h.name.toList.head? = some
    (match h with
      | .isBlank    => 'I'
      | .toNumeric  => 'T'
      | .wrapToWord => 'W'
      | .decode _   => 'D') := by
  cases h
  case decode => exact head_append (by simp)
  all_goals simp [name]

theorem name_injective : Function.Injective name := by
  intro h h' hn
  have hh : h.name.toList.head? = h'.name.toList.head? := by rw [hn]
  rw [head_name, head_name] at hh
  cases h <;> cases h'
  case decode.decode =>
    exact congrArg decode <| camelName_injective <| String.append_right_inj _ |>.mp hn
  all_goals first | rfl | simp at hh

theorem name_function (policy : CoercionPolicy) (h : Helper) :
    (function policy h).name = h.name := by
  cases h <;> rfl

-- A program of helpers, each of which can call the ones before it.
noncomputable def linked (policy : CoercionPolicy) (hs : List Helper) : Program where
  functions := link (hs.map (function policy))

theorem lookup_linked (hh : h ∉ pre) :
    (linked policy (pre ++ h :: post)).functions.lookup h.name =
      some ((function policy h).run (linked policy pre)) := by
  have hn : ∀ f ∈ pre.map (function policy), f.name ≠ (function policy h).name := by
    intro f hf he
    have ⟨h', hm, hf⟩ := List.mem_map.mp hf
    rw [← hf, name_function, name_function] at he
    exact hh (name_injective he ▸ hm)
  rw [linked, List.map_append, List.map_cons, ← name_function policy, lookup_link hn]
  rfl

theorem calls_linked (hh : h ∉ pre) :
    (linked policy (pre ++ h :: post)).Calls h.name
      ((function policy h).run (linked policy pre)) := by
  apply calls_of_lookup _ _ (lookup_linked hh)
  all_goals rw [head_name]; cases h <;> simp

def shared (policy : CoercionPolicy) (types : List ScalarType) : List Helper :=
  [isBlank, toNumeric, wrapToWord].filter (isNeeded policy types)

-- The helpers that types share, with each after the ones that it calls.
theorem shared_eq (hn : types.any ScalarType.isNumeric) :
    shared policy types =
      (if policy.numericStrings then [isBlank] else []) ++ toNumeric ::
        (if isNeeded policy types wrapToWord then [wrapToWord] else []) := by
  have hb : isNeeded policy types isBlank = policy.numericStrings := by simp [isNeeded, hn]
  have ht : isNeeded policy types toNumeric = true := hn
  cases hs : policy.numericStrings <;> cases hw : isNeeded policy types wrapToWord
  all_goals simp [shared, List.filter, hb, ht, hs, hw]

theorem calls_toNumeric (hn : types.any ScalarType.isNumeric) (more : List Helper) :
    ∃ f, (linked policy (shared policy types ++ more)).Calls "ToNumeric" f ∧
      NumericView policy f := by
  rw [shared_eq hn, List.append_assoc]
  refine ⟨_, calls_linked (h := toNumeric) ?_, numericView_toNumeric ?_⟩
  · split <;> simp
  · intro hs
    rw [if_pos hs]
    exact ⟨_, calls_linked (h := isBlank) (List.not_mem_nil), run_isBlank policy⟩

theorem calls_wrapToWord {i : IntegerType} (hi : .integer i ∈ types)
    (hw : policy.integerOverflow = .wrap) (more : List Helper) :
    ∃ f, (linked policy (shared policy types ++ more)).Calls "WrapToUint64" f ∧ WordOf f := by
  have hn : types.any ScalarType.isNumeric := List.any_eq_true.mpr ⟨_, hi, rfl⟩
  have hw : isNeeded policy types wrapToWord = true := by
    simp only [isNeeded, hw, Bool.and_eq_true, List.any_eq_true]
    exact ⟨rfl, _, hi, rfl⟩
  rw [shared_eq hn, if_pos hw, List.append_cons, List.append_assoc, List.singleton_append]
  refine ⟨_, calls_linked (h := wrapToWord) ?_, fun x n => run_wrapToWord⟩
  split <;> simp

theorem provides_linked (ht : t ∈ types) (more : List Helper) :
    Provides (linked policy (shared policy types ++ more)) policy t where
  numeric hn := calls_toNumeric (List.any_eq_true.mpr ⟨t, ht, hn⟩) more
  word hw hi :=
    have ⟨_, hi⟩ := hi
    calls_wrapToWord (hi ▸ ht) hw more

theorem needed_eq : needed policy types = shared policy types ++ types.eraseDups.map decode :=
  rfl

theorem lookup_decode (policy : CoercionPolicy) (ht : t ∈ types) :
    ∃ f, (linked policy (needed policy types)).functions.lookup (decode t).name = some f ∧
      ∀ v c, f [.host v] [c] = some (verdict t c (t.decode policy v)) := by
  have ⟨before, after, he, hb⟩ := List.eq_append_cons_of_mem (List.mem_eraseDups.mpr ht)
  have hd : decode t ∉ shared policy types ++ before.map decode := by
    simp [shared, hb]
  rw [needed_eq, he, List.map_append, List.map_cons, ← List.append_assoc]
  exact ⟨_, lookup_linked hd, fun _ _ => run_decode (provides_linked ht _)⟩

theorem lookup_isBlank (hs : policy.numericStrings) (hn : types.any ScalarType.isNumeric) :
    ∃ f, (linked policy (needed policy types)).functions.lookup "IsBlank" = some f ∧
      BlankTest f := by
  rw [needed_eq, shared_eq hn, if_pos hs]
  exact ⟨_, lookup_linked (h := isBlank) (List.not_mem_nil), run_isBlank policy⟩

theorem functions_helperItems (policy : CoercionPolicy) (types : List ScalarType) :
    (helperItems policy types).flatMap Item.functions =
      (needed policy types).map (function policy) := by
  cases types
  case nil  => simp [helperItems, needed, isNeeded]
  case cons => simp [helperItems, Item.functions]

end Helper

end Source

end AddonBinding
