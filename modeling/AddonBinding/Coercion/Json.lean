import AddonBinding.Coercion.Policy
import AddonBinding.Json.Basic

namespace AddonBinding.CoercionPolicy

-- Every field may be missing; those that are there have to be right.
def ofJson? (j : Json) : Option CoercionPolicy := do
  let [strings, empty, nan, overflow] ← j.fields?
    ["numeric_strings", "empty_string_as_zero", "integer_nan", "integer_overflow"] | none
  return {
    numericStrings := ← strings.elim (some false) Json.toBoolean?
    emptyStringAsZero := ← empty.elim (some false) Json.toBoolean?
    integerNaN := ← nan.elim (some .zero) (·.toChoice? >>= NaNRule.ofName?)
    integerOverflow := ← overflow.elim (some .wrap) (·.toChoice? >>= OverflowRule.ofName?)
  }

def toJson (p : CoercionPolicy) : Json :=
  .record [
    ("numeric_strings", some (.boolean p.numericStrings)),
    ("empty_string_as_zero", some (.boolean p.emptyStringAsZero)),
    ("integer_nan", some (.ofText p.integerNaN.name)),
    ("integer_overflow", some (.ofText p.integerOverflow.name))]

end AddonBinding.CoercionPolicy
