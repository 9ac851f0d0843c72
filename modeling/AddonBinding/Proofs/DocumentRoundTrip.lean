import AddonBinding.Proofs.Conversion
import AddonBinding.Proofs.JsonRecords

namespace AddonBinding

variable {float? : Numeral → Option Double} {j : Json}

namespace Numeral

-- Numbers are read as the nearest double, and refused beyond the largest one.
def ReadsNearest (float? : Numeral → Option Double) : Prop :=
  ∀ n x, float? n = some x ↔ n.toDouble = x ∧ x.isFinite

def nearest? (n : Numeral) : Option Double :=
  if n.toDouble.isFinite then some n.toDouble else none

theorem readsNearest_nearest? : ReadsNearest nearest? := by
  intro n x
  simp only [nearest?]
  split <;> grind

-- Reading in few steps rounds more than once, and 905804884283256.1 becomes a double beside the
-- nearest one.
theorem not_readsNearest_scaled? : ¬ReadsNearest scaled? := by
  have hs : scaled? ⟨false, 905804884283256, [1], none⟩ ≠
      some (toDouble ⟨false, 905804884283256, [1], none⟩) := by decide +kernel
  have hf : (toDouble ⟨false, 905804884283256, [1], none⟩).isFinite := by decide +kernel
  exact fun h => hs <| (h ..).mpr ⟨rfl, hf⟩

end Numeral

theorem toNat_ofInt {n : Int} (hl : 0 ≤ n) (hu : n < pow2 64) : (UInt64.ofInt n).toNat = n :=
  have hc : (IntegerType.mk .w64 false).Contains n := ⟨hl, hu⟩
  hc.toNat_ofInt rfl

namespace Literal

variable {l : Literal} {x : Double}

-- An unsigned literal is beyond the signed range.
def Canonical : Literal → Prop
  | .unsigned n => pow2 63 ≤ n.toNat
  | _           => True

theorem ofNumeral?_of_not_isInteger {n : Numeral} (hn : n.isInteger = false) :
    ofNumeral? float? n = (float? n).map .float := by
  simp [ofNumeral?, hn]

-- How a number is read: as an integer of the signed range or beyond it, or by `float?`.
theorem ofNumeral?_cases (float? : Numeral → Option Double) (n : Numeral) :
    ofNumeral? float? n = (float? n).map .float ∨
      ofNumeral? float? n = some (.integer (.ofInt n.toInt)) ∨
      (pow2 63 ≤ n.toInt ∧ n.toInt < pow2 64) ∧
        ofNumeral? float? n = some (.unsigned (.ofInt n.toInt)) := by
  simp only [ofNumeral?]
  split
  case isTrue => exact .inl rfl
  case isFalse =>
    split
    case isTrue => exact .inr <| .inl rfl
    case isFalse hs =>
      split
      case isTrue hu => exact .inr <| .inr ⟨⟨by omega, hu.2⟩, rfl⟩
      case isFalse   => exact .inl rfl

theorem exists_numeral (h : read? float? j = some l) (hb : ∀ b, l ≠ .boolean b)
    (ht : ∀ s, l ≠ .text s) : ∃ n, ofNumeral? float? n = some l := by
  cases j <;> try contradiction
  case boolean b => exact absurd (Option.some.inj h).symm (hb b)
  case number n  => exact ⟨n, h⟩
  case text s    =>
    have ⟨s, _, hs⟩ := Option.map_eq_some_iff.mp h
    exact absurd hs.symm (ht s)

theorem canonical_of_read? (h : read? float? j = some l) : l.Canonical := by
  cases l <;> try trivial
  case unsigned u =>
    have ⟨n, hn⟩ := exists_numeral h (by simp) (by simp)
    rcases ofNumeral?_cases float? n with hc | hc | ⟨⟨hl, hu⟩, hc⟩ <;> rw [hc] at hn
    · have ⟨_, _, hx⟩ := Option.map_eq_some_iff.mp hn
      contradiction
    · cases hn
    · cases hn
      have hw := toNat_ofInt (by omega) hu
      change pow2 63 ≤ (UInt64.ofInt n.toInt).toNat
      omega

theorem isFinite_of_read? (hr : Numeral.ReadsNearest float?)
    (h : read? float? j = some (.float x)) : x.isFinite := by
  have ⟨n, hn⟩ := exists_numeral h (by simp) (by simp)
  rcases ofNumeral?_cases float? n with hc | hc | ⟨_, hc⟩ <;> rw [hc] at hn
  · have ⟨y, hy, hx⟩ := Option.map_eq_some_iff.mp hn
    cases hx
    exact (hr n x).mp hy |>.2
  · cases hn
  · cases hn

theorem ofNumeral?_of_isInteger {n : Numeral} (hn : n.isInteger) (hz : n.negative → n.whole ≠ 0) :
    ofNumeral? float? n =
      if -(pow2 63 : Int) ≤ n.toInt ∧ n.toInt < pow2 63 then some (.integer (.ofInt n.toInt))
      else if 0 ≤ n.toInt ∧ n.toInt < pow2 64 then some (.unsigned (.ofInt n.toInt))
      else (float? n).map .float := by
  have hc : ¬(!n.isInteger ∨ n.negative ∧ n.whole = 0) := by simpa [hn] using hz
  simp only [ofNumeral?]
  rw [if_neg hc]

theorem read?_integer (n : Int64) : read? float? (toJson (.integer n)) = some (.integer n) := by
  have hn : (Numeral.ofInt n.toInt).toInt = n.toInt := Double.signed_natAbs
  have hz : (Numeral.ofInt n.toInt).negative → (Numeral.ofInt n.toInt).whole ≠ 0 := by
    simp only [Numeral.ofInt, decide_eq_true_eq]
    omega
  have hr : -(pow2 63 : Int) ≤ n.toInt ∧ n.toInt < pow2 63 := ⟨n.le_toInt, n.toInt_lt⟩
  refine (ofNumeral?_of_isInteger rfl hz).trans ?_
  rw [hn, if_pos hr, Int64.ofInt_toInt]

theorem read?_unsigned {n : UInt64} (h : pow2 63 ≤ n.toNat) :
    read? float? (toJson (.unsigned n)) = some (.unsigned n) := by
  have hn : (Numeral.mk false n.toNat [] none).toInt = n.toNat := rfl
  have hs : ¬(-(pow2 63 : Int) ≤ n.toNat ∧ (n.toNat : Int) < pow2 63) := by omega
  have hu : 0 ≤ (n.toNat : Int) ∧ (n.toNat : Int) < pow2 64 :=
    ⟨by omega, Int.ofNat_lt.mpr n.toNat_lt⟩
  have hw : UInt64.ofInt n.toNat = n := by
    rw [← UInt64.toNat_inj, ← Int.natCast_inj, toNat_ofInt hu.1 hu.2]
  change ofNumeral? float? ⟨false, n.toNat, [], none⟩ = _
  rw [ofNumeral?_of_isInteger rfl (by simp), hn, if_neg hs, if_pos hu, hw]

theorem read?_float (hr : Numeral.ReadsNearest float?) (hx : x.isFinite) :
    read? float? (toJson (.float x)) = some (.float x) := by
  cases x <;> try contradiction
  case finite a steps hf =>
    have hn : float? (Json.numberFormat.numeral a steps) = some (.finite a steps hf) :=
      (hr ..).mpr ⟨NumberFormat.toDouble_numeral rfl a hf, rfl⟩
    have hi := NumberFormat.isInteger_numeral (f := Json.numberFormat) (by decide) a steps
    refine (ofNumeral?_of_not_isInteger hi).trans ?_
    rw [hn]
    rfl

-- Only floating literals depend on how numbers are read.
theorem read?_toJson (hc : l.Canonical)
    (hf : ∀ x, l = .float x → read? float? (toJson (.float x)) = some (.float x)) :
    read? float? l.toJson = some l := by
  cases l
  case boolean    => rfl
  case integer n  => exact read?_integer n
  case unsigned n => exact read?_unsigned hc
  case float x    => exact hf x rfl
  case text       => rfl

theorem written_toJson (l : Literal) : l.toJson.Written := by
  cases l
  case boolean b  => exact .boolean b
  case integer n  => exact Json.written_ofInt _
  case unsigned n => exact Json.written_ofNat _
  case float x    => exact Json.written_ofDouble x
  case text s     => exact Json.written_ofText s

end Literal

namespace Attribute

theorem ofJson?_toJson (a : Attribute) : ofJson? a.toJson = some a := by
  have hf : a.toJson.fields? ["name", "type", "readonly"] =
      some [some (.ofText a.name), some (.ofText a.type), some (.boolean a.readonly)] :=
    Json.fields?_record rfl (by decide)
  rw [ofJson?, hf]
  rfl

theorem written_toJson (a : Attribute) : a.toJson.Written := by
  apply Json.written_record
  simp [Json.written_ofText, Json.Written.boolean]

end Attribute

namespace Parameter

theorem readDefault?_toJson_iff {default : Option Literal} :
    readDefault? float? (default.map Literal.toJson) = some default ↔
      ∀ l ∈ default, Literal.read? float? l.toJson = some l := by
  cases default
  case none => simp [readDefault?]
  case some l =>
    cases hj : l.toJson <;> simp [readDefault?, Literal.read?, hj]

theorem read?_toJson_iff {p : Parameter} :
    read? float? p.toJson = some p ↔ ∀ l ∈ p.default, Literal.read? float? l.toJson = some l := by
  have hf : p.toJson.fields? ["name", "type", "optional", "default"] =
      some [some (.ofText p.name), some (.ofText p.type),
        if p.optional then some (.boolean true) else none, p.default.map Literal.toJson] :=
    Json.fields?_record rfl (by decide)
  rw [read?, hf, ← readDefault?_toJson_iff]
  have ⟨name, type, optional, default⟩ := p
  cases optional <;> simp [Json.toText?, Json.ofText, Json.toBoolean?, Option.bind_eq_some_iff]

theorem written_toJson (p : Parameter) : p.toJson.Written := by
  apply Json.written_record
  simp [Json.written_ofText, Json.Written.boolean, Literal.written_toJson]

theorem exists_read? {p : Parameter} {l : Literal} (h : read? float? j = some p)
    (hl : p.default = some l) : ∃ j, Literal.read? float? j = some l := by
  have ⟨fields, _, h⟩ := Option.bind_eq_some_iff.mp h
  split at h <;> try contradiction
  case h_1 =>
    simp only [Option.bind_eq_bind, Option.bind_eq_some_iff] at h
    have ⟨_, _, _, _, _, _, default, hd, h⟩ := h
    cases h
    cases hl
    unfold readDefault? at hd
    split at hd
    case h_3 j _ _ =>
      have ⟨l, hj, hl⟩ := Option.map_eq_some_iff.mp hd
      cases hl
      exact ⟨j, hj⟩
    all_goals cases hd

end Parameter

namespace Interface

theorem read?_toJson_iff {i : Interface} :
    read? float? i.toJson = some i ↔
      ∀ p ∈ i.constructor, Parameter.read? float? p.toJson = some p := by
  have hf : i.toJson.fields? ["name", "constructor", "attributes"] =
      some [some (.ofText i.name),
        if i.constructor.isEmpty then none else some (.array (i.constructor.map Parameter.toJson)),
        some (.array (i.attributes.map Attribute.toJson))] :=
    Json.fields?_record rfl (by decide)
  have hc : Json.listOf? (Parameter.read? float?)
        (if i.constructor.isEmpty then none
          else some (.array (i.constructor.map Parameter.toJson))) = some i.constructor ↔
      ∀ p ∈ i.constructor, Parameter.read? float? p.toJson = some p := by
    cases hc : i.constructor
    case nil => simp [Json.listOf?]
    case cons p ps =>
      rw [← mapM_map_eq_some_self_iff]
      rfl
  have ha : Json.listOf? Attribute.ofJson? (some (.array (i.attributes.map Attribute.toJson))) =
      some i.attributes :=
    mapM_map_eq_some_self_iff.mpr fun a _ => a.ofJson?_toJson
  rw [read?, hf, ← hc]
  have ⟨name, constructor, attributes⟩ := i
  simp only [Option.bind_eq_bind, Option.bind_some, ha]
  simp [Json.toText?, Json.ofText, Option.bind_eq_some_iff]

theorem written_toJson (i : Interface) : i.toJson.Written := by
  apply Json.written_record
  have hp : (Json.array (i.constructor.map Parameter.toJson)).Written :=
    Json.written_array fun p _ => p.written_toJson
  have ha : (Json.array (i.attributes.map Attribute.toJson)).Written :=
    Json.written_array fun a _ => a.written_toJson
  simp [Json.written_ofText, hp, ha]

theorem exists_read? {i : Interface} {p : Parameter} (h : read? float? j = some i)
    (hp : p ∈ i.constructor) : ∃ j, Parameter.read? float? j = some p := by
  have ⟨fields, _, h⟩ := Option.bind_eq_some_iff.mp h
  split at h <;> try contradiction
  case h_1 =>
    simp only [Option.bind_eq_bind, Option.bind_eq_some_iff] at h
    have ⟨_, _, _, hc, _, _, h⟩ := h
    cases h
    exact Json.exists_of_listOf? hc hp

end Interface

namespace Document

-- The default values of all parameters.
def defaults (d : Document) : List Literal :=
  d.interfaces.flatMap fun i => i.constructor.filterMap Parameter.default

theorem mem_defaults {d : Document} {l : Literal} :
    l ∈ d.defaults ↔ ∃ i ∈ d.interfaces, ∃ p ∈ i.constructor, p.default = some l := by
  simp [defaults]

theorem read?_toJson_iff {d : Document} :
    read? float? d.toJson = some d ↔ ∀ l ∈ d.defaults, Literal.read? float? l.toJson = some l := by
  have hf : d.toJson.fields? ["interfaces"] =
      some [some (.array (d.interfaces.map Interface.toJson))] :=
    Json.fields?_record rfl (by decide)
  have hi : read? float? d.toJson = some d ↔
      ∀ i ∈ d.interfaces, Interface.read? float? i.toJson = some i := by
    rw [read?, hf, ← mapM_map_eq_some_self_iff]
    have ⟨interfaces⟩ := d
    simp [Json.listOf?, Json.toList?, Option.bind_eq_some_iff]
  rw [hi]
  simp only [Interface.read?_toJson_iff, Parameter.read?_toJson_iff, mem_defaults]
  constructor
  case mp  => exact fun h l ⟨i, hi, p, hp, hl⟩ => h i hi p hp l hl
  case mpr => exact fun h i hi p hp l hl => h l ⟨i, hi, p, hp, hl⟩

-- Every default value of a document was read.
theorem exists_read? {d : Document} {l : Literal} (h : read? float? j = some d)
    (hl : l ∈ d.defaults) : ∃ j, Literal.read? float? j = some l := by
  have ⟨i, hi, p, hp, hv⟩ := mem_defaults.mp hl
  have ⟨fields, _, h⟩ := Option.bind_eq_some_iff.mp h
  split at h <;> try contradiction
  case h_1 =>
    have ⟨_, hs, h⟩ := Option.bind_eq_some_iff.mp h
    cases h
    have ⟨_, hi⟩ := Json.exists_of_listOf? hs hi
    have ⟨_, hp⟩ := Interface.exists_read? hi hp
    exact Parameter.exists_read? hp hv

theorem written_toJson (d : Document) : d.toJson.Written := by
  apply Json.written_record
  have hi : (Json.array (d.interfaces.map Interface.toJson)).Written :=
    Json.written_array fun i _ => i.written_toJson
  simp [hi]

theorem parseWith?_compact (d : Document) :
    parseWith? float? d.toJson.compact = read? float? d.toJson := by
  rw [parseWith?, Json.parse?_compact d.written_toJson]
  rfl

end Document

-- However numbers are read, a document that was read comes back from its JSON text where its
-- floating defaults do. If they are read as the nearest double, it always does.
theorem document_reads_back {float? : Numeral → Option Double} {s : String} {d : Document}
    (h : Document.parseWith? float? s = some d) :
    (Document.parseWith? float? d.toJson.compact = some d ↔
      ∀ x, .float x ∈ d.defaults → Literal.read? float? (Literal.float x).toJson = some (.float x)) ∧
    (Numeral.ReadsNearest float? → Document.parseWith? float? d.toJson.compact = some d) := by
  have ⟨j, _, hd⟩ := Option.bind_eq_some_iff.mp h
  have hb : Document.parseWith? float? d.toJson.compact = some d ↔
      ∀ x, .float x ∈ d.defaults →
        Literal.read? float? (Literal.float x).toJson = some (.float x) := by
    rw [Document.parseWith?_compact, Document.read?_toJson_iff]
    refine ⟨fun h x hx => h _ hx, fun h l hl => ?_⟩
    have ⟨j, hj⟩ := Document.exists_read? hd hl
    exact Literal.read?_toJson (Literal.canonical_of_read? hj) fun x hx => hx ▸ h x (hx ▸ hl)
  refine ⟨hb, fun hr => hb.mpr fun x hx => ?_⟩
  have ⟨j, hj⟩ := Document.exists_read? hd hx
  exact Literal.read?_float hr <| Literal.isFinite_of_read? hr hj

-- Records may be written as arrays of their fields.
def gaugeText : String :=
  "[[[\"Gauge\",[[\"a\",\"double\",true,-0],[\"b\",\"uint64\",true,9223372036854775808],[\"c\",\"string\",true,\"\\n\"]]]]]"

theorem document_reads_back_gauge :
    ∃ d, Document.parseWith? Numeral.nearest? gaugeText = some d ∧
      d.defaults = [.float (.finite true 0 .zero), .unsigned 9223372036854775808, .text "\n"] ∧
      Document.parseWith? Numeral.nearest? d.toJson.compact = some d := by
  have hd : (Document.parseWith? Numeral.nearest? gaugeText).map Document.defaults =
      some [.float (.finite true 0 .zero), .unsigned 9223372036854775808, .text "\n"] := by
    decide +kernel
  have ⟨d, h, hd⟩ := Option.map_eq_some_iff.mp hd
  exact ⟨d, h, hd, (document_reads_back h).2 Numeral.readsNearest_nearest?⟩

end AddonBinding
