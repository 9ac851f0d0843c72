import AddonBinding.Json.Reader
import AddonBinding.Json.Writer
import AddonBinding.Manifest.Basic

namespace AddonBinding

namespace ParameterEntry

def toJson (p : ParameterEntry) : Json :=
  .record [
    ("name", some (.ofText p.name)),
    ("type", some (.ofText p.type)),
    ("optional", some (.boolean p.optional))]

def ofJson? (j : Json) : Option ParameterEntry := do
  let [name, type, optional] ← j.fields? ["name", "type", "optional"] | none
  return {
    name := ← name >>= Json.toText?
    type := ← type >>= Json.toText?
    optional := ← optional >>= Json.toBoolean?
  }

end ParameterEntry

namespace ConstructorEntry

def toJson (c : ConstructorEntry) : Json :=
  .record [
    ("symbol", some (.ofText c.symbol)),
    ("required", some (.ofNat c.required)),
    ("total", some (.ofNat c.total)),
    ("parameters", some (.array (c.parameters.map ParameterEntry.toJson)))]

def ofJson? (j : Json) : Option ConstructorEntry := do
  let [symbol, required, total, parameters] ←
    j.fields? ["symbol", "required", "total", "parameters"] | none
  return {
    symbol := ← symbol >>= Json.toText?
    required := (← required >>= Json.toUInt64?).toNat
    total := (← total >>= Json.toUInt64?).toNat
    parameters := ← parameters >>= Json.toList? >>= (·.mapM ParameterEntry.ofJson?)
  }

end ConstructorEntry

namespace AttributeEntry

def toJson (a : AttributeEntry) : Json :=
  .record [
    ("name", some (.ofText a.name)),
    ("type", some (.ofText a.type)),
    ("getter", some (.ofText a.getter)),
    ("setter", a.setter.map .ofText),
    ("writable", some (.boolean a.writable))]

-- A setter that is null is none.
def setterOfJson? : Option Json → Option (Option String)
  | none | some .null => some none
  | some j => j.toText?.map some

def ofJson? (j : Json) : Option AttributeEntry := do
  let [name, type, getter, setter, writable] ←
    j.fields? ["name", "type", "getter", "setter", "writable"] | none
  return {
    name := ← name >>= Json.toText?
    type := ← type >>= Json.toText?
    getter := ← getter >>= Json.toText?
    setter := ← setterOfJson? setter
    writable := ← writable >>= Json.toBoolean?
  }

end AttributeEntry

namespace InterfaceEntry

def toJson (e : InterfaceEntry) : Json :=
  .record [
    ("name", some (.ofText e.name)),
    ("class", some (.ofText e.className)),
    ("constructor", some e.constructor.toJson),
    ("attributes", some (.array (e.attributes.map AttributeEntry.toJson)))]

def ofJson? (j : Json) : Option InterfaceEntry := do
  let [name, className, constructor, attributes] ←
    j.fields? ["name", "class", "constructor", "attributes"] | none
  return {
    name := ← name >>= Json.toText?
    className := ← className >>= Json.toText?
    constructor := ← constructor >>= ConstructorEntry.ofJson?
    attributes := ← attributes >>= Json.toList? >>= (·.mapM AttributeEntry.ofJson?)
  }

end InterfaceEntry

namespace Manifest

def toJson (m : Manifest) : Json :=
  .record [
    ("module", some (.ofText m.moduleName)),
    ("interfaces", some (.array (m.interfaces.map InterfaceEntry.toJson)))]

def ofJson? (j : Json) : Option Manifest := do
  let [moduleName, interfaces] ← j.fields? ["module", "interfaces"] | none
  return {
    moduleName := ← moduleName >>= Json.toText?
    interfaces := ← interfaces >>= Json.toList? >>= (·.mapM InterfaceEntry.ofJson?)
  }

def parse? (s : String) : Option Manifest :=
  Json.parse? s >>= ofJson?

def text (m : Manifest) : String :=
  m.toJson.pretty

end Manifest

end AddonBinding
