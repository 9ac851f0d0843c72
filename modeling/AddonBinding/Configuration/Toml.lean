import AddonBinding.Configuration.Basic
import AddonBinding.Toml.Reader

namespace AddonBinding

namespace CoercionPolicy

-- Every field may be missing; those that are there have to be right.
def ofToml? (t : Toml) : Option CoercionPolicy := do
  let [strings, empty, nan, overflow] ← t.fields?
    ["numeric_strings", "empty_string_as_zero", "integer_nan", "integer_overflow"] | none
  return {
    numericStrings := ← strings.elim (some false) Toml.toBoolean?
    emptyStringAsZero := ← empty.elim (some false) Toml.toBoolean?
    integerNaN := ← nan.elim (some .zero) (·.toChoice? >>= NaNRule.ofName?)
    integerOverflow := ← overflow.elim (some .wrap) (·.toChoice? >>= OverflowRule.ofName?)
  }

end CoercionPolicy

namespace BuildSettings

def keys : List String :=
  ["module", "output", "emit_dts", "emit_manifest", "banner", "verbose"]

def optional {α : Type} (read : Toml → Option α) : Option Toml → Option (Option α)
  | none => some none
  | some t => (read t).map some

-- Only a table may leave fields out.
def ofToml? (t : Toml) : Option BuildSettings := do
  guard (t.hasOnly keys)
  let fields ← t.fields? keys
  guard (t.isTable ∨ fields.all (·.isSome))
  let [moduleName, output, typings, manifest, banner, verbose] := fields | none
  return {
    moduleName := ← optional Toml.toText? moduleName
    output := ← optional Toml.toText? output
    typings := ← optional Toml.toBoolean? typings
    manifest := ← optional Toml.toBoolean? manifest
    banner := ← optional Toml.toText? banner
    verbose := ← optional Toml.toBoolean? verbose
  }

end BuildSettings

namespace Configuration

def keys : List String :=
  ["build", "coercion"]

def ofToml? (t : Toml) : Option Configuration := do
  guard (t.hasOnly keys)
  let [build, coercion] ← t.fields? keys | none
  return {
    build := ← build.elim (some {}) BuildSettings.ofToml?
    coercion := ← coercion.elim (some {}) CoercionPolicy.ofToml?
  }

def parse? (s : String) : Option Configuration :=
  Toml.parse? s >>= ofToml?

end Configuration

end AddonBinding
