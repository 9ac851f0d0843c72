import AddonBinding.Proofs.Outline
import AddonBinding.Proofs.ReadItems

namespace AddonBinding

open Source Token

namespace Source

theorem isBase_storage (t : ScalarType) : Variable.isBase (.storage t) := by
  have h : ∀ t ∈ ScalarType.all, Variable.isBase (.storage t) := by decide
  exact h t t.mem_all

namespace Expr

theorem castName_storage (t : ScalarType) : isName (castName (.storage t)) ∧
    Word.ofChars (castName (.storage t)) = .cast (.storage t) := by
  have h : ∀ t ∈ ScalarType.all, isName (castName (.storage t)) ∧
      Word.ofChars (castName (.storage t)) = .cast (.storage t) := by decide
  exact h t t.mem_all

theorem level_lt_whole (op : BinaryOperator) (n : Int) : op.level < (whole n).level := by
  unfold whole withSign
  cases op <;> split <;> simp [level, BinaryOperator.level]

end Expr

namespace Helper

variable (policy : CoercionPolicy)

theorem isReadable_integerBody (t : IntegerType) : Stmt.allReadable (integerBody policy t) := by
  have hl (op : BinaryOperator) (a b : Expr) : (Expr.binary op a b).level = op.level := rfl
  unfold integerBody
  cases policy.integerOverflow <;> cases policy.integerNaN <;>
    simp +decide [numericStart, nanBody, succeed, fail, Stmt.when, Stmt.returnBool,
      Stmt.allReadable, Stmt.isReadable, Expr.callName, Expr.isReadable, Expr.allReadable,
      Expr.castName_storage, Expr.isReadable_whole, Expr.level_lt_whole, hl]

theorem isReadable_decodeBody (t : ScalarType) : Stmt.allReadable (decodeBody policy t) := by
  cases t
  case text      => exact (by decide : Stmt.allReadable textBody)
  case boolean   => exact (by decide : Stmt.allReadable booleanBody)
  case integer t => exact isReadable_integerBody policy t
  case float t   =>
    have h : ∀ single unrestricted, Stmt.allReadable (floatBody ⟨single, unrestricted⟩) := by
      decide
    exact h ..

theorem isReadable_toNumericBody : Stmt.allReadable (toNumericBody policy) := by
  obtain ⟨numericStrings, emptyStringAsZero, _, _⟩ := policy
  have h : ∀ numericStrings emptyStringAsZero, Stmt.allReadable
      (toNumericBody ⟨numericStrings, emptyStringAsZero, .zero, .wrap⟩) := by
    decide
  exact h ..

theorem isName_name (h : Helper) : isName h.name.toList := by
  have hd : ∀ t ∈ ScalarType.all, isName (decode t).name.toList := by decide
  cases h
  case decode t => exact hd t t.mem_all
  all_goals decide

theorem isReadable_function (h : Helper) : (function policy h).isReadable := by
  have hn := h.isName_name
  have hb : Stmt.allReadable isBlankBody := by decide
  have hw : Stmt.allReadable wrapBody := by decide
  cases h <;> simp +decide [function, Function.isReadable, Function.parameter, Variable.isReadable,
    Variable.form, hn, hb, hw, isBase_storage, isReadable_decodeBody, isReadable_toNumericBody]

end Helper

theorem isReadable_helperItems (policy : CoercionPolicy) (types : List ScalarType) :
    ∀ item ∈ helperItems policy types, item.isReadable := by
  unfold helperItems
  split
  case isTrue  => nofun
  case isFalse => simp [Item.isReadable, Helper.isReadable_function]

-- What is written for helpers is read as these helpers.
theorem read?_helperItems (policy : CoercionPolicy) (types : List ScalarType) :
    read? (unlines (itemLines (helperItems policy types))) = some (helperItems policy types) := by
  have ho : Outlined _ (itemLines (helperItems policy types)) :=
    .spaced fun item hi => Item.outlined_lines (isPlain_helperItems policy types item hi)
  have hb : (helperItems policy types).filterMap Item.bare? = helperItems policy types := by
    unfold helperItems
    split <;> rfl
  rw [read?_of_lines (Text.lines_unlines ho.oneLine) (isReadable_helperItems policy types), hb]

end Source

-- Whatever the policy and the types of a unit, the helper of a type succeeds with a native value
-- exactly where the host layer has that value, and fails exactly where the host layer has an error.
-- What the helper does with a blank text depends on a scan of the bytes, which is right for every
-- text. The functions are those that a reader finds in the text of the helpers.
theorem helper_returns_iff_decode (policy : CoercionPolicy) {types : List ScalarType}
    {t : ScalarType} (ht : t ∈ types) :
    let functions := link ((helperItems policy types).flatMap Item.functions)
    read? (unlines (itemLines (helperItems policy types))) = some (helperItems policy types) ∧
    (∃ f, functions.lookup (Helper.decode t).name = some f ∧ ∀ v c,
      (∀ n, t.holds n →
        (f [.host v] [c] = some (.bool true, [some (stored t n)]) ↔ t.decode policy v = .ok n)) ∧
      ((∃ c', f [.host v] [c] = some (.bool false, c')) ↔ ∃ e, t.decode policy v = .error e)) ∧
    (policy.numericStrings → t.isNumeric →
      ∃ f, functions.lookup Helper.isBlank.name = some f ∧
        ∀ s, f [.text (utf8 s)] [] = some (.bool (HostValue.isBlank s), [])) := by
  refine ⟨read?_helperItems policy types, ?_⟩
  rw [Helper.functions_helperItems]
  constructor
  case left =>
    have ⟨f, hf, hd⟩ := Helper.lookup_decode policy ht
    refine ⟨f, hf, fun v c => ?_⟩
    rw [hd v c]
    cases he : t.decode policy v
    case error e => simp [Helper.verdict]
    case ok m    =>
      have hm := ScalarType.holds_of_decode he
      refine ⟨fun n hn => ⟨fun h => ?_, fun h => ?_⟩, by simp [Helper.verdict]⟩
      · simp only [Helper.verdict, Option.some.injEq, Prod.mk.injEq, List.cons.injEq] at h
        rw [Helper.stored_inj hm hn h.right.left]
      · rw [Except.ok.inj h]
        rfl
  case right =>
    intro hs hn
    exact Helper.lookup_isBlank hs (List.any_eq_true.mpr ⟨t, ht, hn⟩)

theorem helper_returns_iff_decode_octet :
    let octet : ScalarType := .integer ⟨.w8, false⟩
    let policy : CoercionPolicy := { numericStrings := true, integerOverflow := .wrap }
    let functions := link ((helperItems policy [.boolean, octet]).flatMap Item.functions)
    ∃ f, functions.lookup "DecodeOctet" = some f ∧
      f [.host (.number (.ofInt (-300)))] [none] =
        some (.bool true, [some (.integer (.word false 8) 212)]) ∧
      ∃ c, f [.host (.text "\u3000")] [none] = some (.bool false, c) := by
  intro octet policy functions
  have ⟨_, ⟨f, hf, h⟩, _⟩ :=
    @helper_returns_iff_decode policy [.boolean, octet] octet (by decide)
  refine ⟨f, hf, ?_, ?_⟩
  · exact (h _ _).left (.unsigned 212) (by decide) |>.mpr (by decide +kernel)
  · exact (h _ _).right.mpr ⟨.nonNumericText "\u3000", by decide +kernel⟩

end AddonBinding
