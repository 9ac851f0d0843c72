import AddonBinding.Manifest.Json
import AddonBinding.Proofs.JsonRecords

namespace AddonBinding

theorem Json.toUInt64?_ofNat (n : Nat) :
    (Json.ofNat n).toUInt64? = if n < pow2 64 then some (.ofNat n) else none := by
  simp [ofNat, toUInt64?, Numeral.isInteger]

theorem Json.toUInt64?_ofNat_iff {n : Nat} :
    (Json.ofNat n).toUInt64?.map UInt64.toNat = some n ↔ n < pow2 64 := by
  rw [toUInt64?_ofNat]
  split
  case isTrue h  => simp [h]
  case isFalse h => simpa using h

namespace ParameterEntry

theorem ofJson?_toJson (p : ParameterEntry) : ofJson? p.toJson = some p := by
  have hf : p.toJson.fields? ["name", "type", "optional"] =
      some [some (.ofText p.name), some (.ofText p.type), some (.boolean p.optional)] :=
    Json.fields?_record rfl (by decide)
  rw [ofJson?, hf]
  rfl

theorem written_toJson (p : ParameterEntry) : p.toJson.Written := by
  apply Json.written_record
  simp [Json.written_ofText, Json.Written.boolean]

end ParameterEntry

namespace ConstructorEntry

-- The numbers of arguments are words of 64 bits.
structure Counted (c : ConstructorEntry) : Prop where
  required : c.required < pow2 64
  total    : c.total < pow2 64

theorem ofJson?_toJson_iff {c : ConstructorEntry} : ofJson? c.toJson = some c ↔ c.Counted := by
  have hf : c.toJson.fields? ["symbol", "required", "total", "parameters"] =
      some [some (.ofText c.symbol), some (.ofNat c.required), some (.ofNat c.total),
        some (.array (c.parameters.map ParameterEntry.toJson))] :=
    Json.fields?_record rfl (by decide)
  have hp : (c.parameters.map ParameterEntry.toJson).mapM ParameterEntry.ofJson? =
      some c.parameters :=
    mapM_map_eq_some_self_iff.mpr fun p _ => p.ofJson?_toJson
  have hc : c.Counted ↔ (Json.ofNat c.required).toUInt64?.map UInt64.toNat = some c.required ∧
      (Json.ofNat c.total).toUInt64?.map UInt64.toNat = some c.total := by
    rw [Json.toUInt64?_ofNat_iff, Json.toUInt64?_ofNat_iff]
    exact ⟨fun ⟨hr, ht⟩ => ⟨hr, ht⟩, fun ⟨hr, ht⟩ => ⟨hr, ht⟩⟩
  rw [ofJson?, hf, hc]
  obtain ⟨symbol, required, total, parameters⟩ := c
  simp only [Option.bind_eq_bind, Option.bind_some, Json.toText?, Json.ofText, Json.toList?, hp]
  cases (Json.ofNat required).toUInt64? <;> cases (Json.ofNat total).toUInt64?
  all_goals simp

theorem written_toJson (c : ConstructorEntry) : c.toJson.Written := by
  apply Json.written_record
  have hp : (Json.array (c.parameters.map ParameterEntry.toJson)).Written :=
    Json.written_array fun p _ => p.written_toJson
  simp [Json.written_ofText, Json.written_ofNat, hp]

end ConstructorEntry

namespace AttributeEntry

theorem setterOfJson?_ofText (setter : Option String) :
    setterOfJson? (setter.map .ofText) = some setter := by
  cases setter <;> rfl

theorem ofJson?_toJson (a : AttributeEntry) : ofJson? a.toJson = some a := by
  have hf : a.toJson.fields? ["name", "type", "getter", "setter", "writable"] =
      some [some (.ofText a.name), some (.ofText a.type), some (.ofText a.getter),
        a.setter.map .ofText, some (.boolean a.writable)] :=
    Json.fields?_record rfl (by decide)
  rw [ofJson?, hf]
  simp [Json.toText?, Json.ofText, Json.toBoolean?, setterOfJson?_ofText]

theorem written_toJson (a : AttributeEntry) : a.toJson.Written := by
  apply Json.written_record
  simp [Json.written_ofText, Json.Written.boolean]

end AttributeEntry

namespace InterfaceEntry

theorem ofJson?_toJson_iff {e : InterfaceEntry} :
    ofJson? e.toJson = some e ↔ e.constructor.Counted := by
  have hf : e.toJson.fields? ["name", "class", "constructor", "attributes"] =
      some [some (.ofText e.name), some (.ofText e.className), some e.constructor.toJson,
        some (.array (e.attributes.map AttributeEntry.toJson))] :=
    Json.fields?_record rfl (by decide)
  have ha : (e.attributes.map AttributeEntry.toJson).mapM AttributeEntry.ofJson? =
      some e.attributes :=
    mapM_map_eq_some_self_iff.mpr fun a _ => a.ofJson?_toJson
  rw [ofJson?, hf, ← ConstructorEntry.ofJson?_toJson_iff]
  obtain ⟨name, className, constructor, attributes⟩ := e
  simp [Json.toText?, Json.ofText, Json.toList?, ha, Option.bind_eq_some_iff]

theorem written_toJson (e : InterfaceEntry) : e.toJson.Written := by
  apply Json.written_record
  have ha : (Json.array (e.attributes.map AttributeEntry.toJson)).Written :=
    Json.written_array fun a _ => a.written_toJson
  simp [Json.written_ofText, e.constructor.written_toJson, ha]

end InterfaceEntry

namespace Manifest

theorem ofJson?_toJson_iff {m : Manifest} :
    ofJson? m.toJson = some m ↔ ∀ e ∈ m.interfaces, e.constructor.Counted := by
  have hf : m.toJson.fields? ["module", "interfaces"] =
      some [some (.ofText m.moduleName), some (.array (m.interfaces.map InterfaceEntry.toJson))] :=
    Json.fields?_record rfl (by decide)
  have hi : (m.interfaces.map InterfaceEntry.toJson).mapM InterfaceEntry.ofJson? =
      some m.interfaces ↔ ∀ e ∈ m.interfaces, e.constructor.Counted := by
    rw [mapM_map_eq_some_self_iff]
    exact forall₂_congr fun e _ => InterfaceEntry.ofJson?_toJson_iff
  rw [ofJson?, hf, ← hi]
  obtain ⟨moduleName, interfaces⟩ := m
  simp [Json.toText?, Json.ofText, Json.toList?, Option.bind_eq_some_iff]

theorem written_toJson (m : Manifest) : m.toJson.Written := by
  apply Json.written_record
  have hi : (Json.array (m.interfaces.map InterfaceEntry.toJson)).Written :=
    Json.written_array fun e _ => e.written_toJson
  simp [Json.written_ofText, hi]

-- Line breaks at the end of a file are passed over.
theorem parse?_text_append (m : Manifest) {b : List Char} (hb : Json.Blank b) :
    parse? (m.text ++ String.ofList b) = ofJson? m.toJson := by
  have hs := m.written_toJson.spells_prettyChars 0 |>.append_blank hb
  rw [parse?, Json.parse?_of_spells (j := m.toJson)]
  · rfl
  · rw [String.toList_append, String.toList_ofList, text, Json.pretty, String.toList_ofList]
    exact hs

end Manifest

-- A manifest comes back from its text, and from the file that ends it with a line break, exactly if
-- its numbers of arguments are words of 64 bits. Its texts may be any.
theorem manifest_reads_back (m : Manifest) :
    (Manifest.parse? m.text = some m ↔ ∀ e ∈ m.interfaces, e.constructor.Counted) ∧
    (Manifest.parse? (m.text ++ "\n") = some m ↔ ∀ e ∈ m.interfaces, e.constructor.Counted) := by
  have ht : Manifest.parse? m.text = Manifest.ofJson? m.toJson := by
    simpa using m.parse?_text_append Json.blank_nil
  have hn : Manifest.parse? (m.text ++ "\n") = Manifest.ofJson? m.toJson :=
    m.parse?_text_append (List.forall_mem_singleton.mpr (.inr rfl))
  rw [ht, hn]
  exact ⟨Manifest.ofJson?_toJson_iff, Manifest.ofJson?_toJson_iff⟩

end AddonBinding
