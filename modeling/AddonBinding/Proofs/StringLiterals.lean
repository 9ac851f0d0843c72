import AddonBinding.Proofs.Values
import Mathlib.Data.List.Chain

-- How the source language reads narrow string literals, and which literals the generator writes.

namespace AddonBinding.Source

namespace StringLiteral

def octalDigit? (c : Char) : Option Nat :=
  if '0' ≤ c ∧ c ≤ '7' then some (c.toNat - '0'.toNat) else none

def simpleEscapes : List (Char × UInt8) :=
  [('\x27', 0x27), ('"', 0x22), ('?', 0x3f), ('\\', 0x5c), ('a', 0x07), ('b', 0x08), ('f', 0x0c),
    ('n', 0x0a), ('r', 0x0d), ('t', 0x09), ('v', 0x0b)]

-- A character that stands for itself. A literal with any other character is not read.
def plainByte? (c : Char) : Option UInt8 :=
  if ' ' ≤ c ∧ c ≤ '~' then some (.ofNat c.toNat) else none

-- What the reader is in the middle of. An octal escape has a number of digits and a value so far,
-- and it goes on for as long as there are octal digits, but not beyond three.
inductive Reading where
  | plain
  | escape
  | octal (digits value : Nat)
deriving DecidableEq

namespace Reading

-- A character that begins something new. After the closing quote nothing is read any more.
def start (c : Char) : Option (List UInt8 × Option Reading) :=
  if c = '"' then some ([], none)
  else if c = '\\' then some ([], some .escape)
  else (plainByte? c).map fun b => ([b], some .plain)

-- A character after an octal escape, whose value has to be that of a byte.
def startAfter (value : Nat) (c : Char) : Option (List UInt8 × Option Reading) :=
  if value < 256 then (start c).map fun (bytes, next) => (.ofNat value :: bytes, next) else none

-- The bytes that are complete with a character, and what follows it.
def step : Reading → Char → Option (List UInt8 × Option Reading)
  | .plain, c              => start c
  | .escape, c             =>
    match octalDigit? c with
    | some d => some ([], some (.octal 1 d))
    | none   => (simpleEscapes.lookup c).map fun b => ([b], some .plain)
  | .octal digits value, c =>
    match octalDigit? c with
    | some d => if digits < 3 then some ([], some (.octal (digits + 1) (8 * value + d)))
      else startAfter value c
    | none   => startAfter value c

end Reading

-- Further bytes before what is read.
def onto (bytes : List UInt8) (read : Option (List UInt8 × List Char)) :
    Option (List UInt8 × List Char) :=
  read.map fun (more, rest) => (bytes ++ more, rest)

-- The bytes up to the closing quote, and what follows it.
def scan (r : Reading) : List Char → Option (List UInt8 × List Char)
  | []        => none
  | c :: rest =>
    match r.step c with
    | none                 => none
    | some (bytes, none)   => some (bytes, rest)
    | some (bytes, some r) => onto bytes (scan r rest)

section Scan

variable {r next : Reading} {c : Char} {cs rest : List Char} {b : UInt8}
variable {bytes : List UInt8} {value d : Nat}

@[simp]
theorem onto_nil (read : Option (List UInt8 × List Char)) : onto [] read = read := by
  simp [onto]

theorem onto_onto (bytes more : List UInt8) (read : Option (List UInt8 × List Char)) :
    onto bytes (onto more read) = onto (bytes ++ more) read := by
  simp [onto, Function.comp_def]

theorem scan_of_step (h : r.step c = some (bytes, some next)) :
    scan r (c :: cs) = onto bytes (scan next cs) := by
  rw [scan, h]

theorem scan_escape (cs : List Char) : scan .plain ('\\' :: cs) = scan .escape cs :=
  (scan_of_step rfl).trans (onto_nil _)

theorem scan_simple (ho : octalDigit? c = none) (hs : simpleEscapes.lookup c = some b)
    (cs : List Char) : scan .plain ('\\' :: c :: cs) = onto [b] (scan .plain cs) := by
  have hr : Reading.step .escape c = some ([b], some .plain) := by
    rw [Reading.step, ho, hs]
    rfl
  rw [scan_escape, scan_of_step hr]

theorem scan_plain (hq : c ≠ '"') (hb : c ≠ '\\') (hp : plainByte? c = some b) (cs : List Char) :
    scan .plain (c :: cs) = onto [b] (scan .plain cs) := by
  refine scan_of_step ?_
  rw [Reading.step, Reading.start, if_neg hq, if_neg hb, hp]
  rfl

-- An octal escape of three digits is complete, so what follows it is read as if nothing were before.
theorem scan_octal (h : value < 256) (cs : List Char) :
    scan (.octal 3 value) cs = onto [.ofNat value] (scan .plain cs) := by
  cases cs
  case nil => rfl
  case cons c cs =>
    have hs : Reading.step (.octal 3 value) c =
        (Reading.start c).map fun (bytes, next) => (.ofNat value :: bytes, next) := by
      rw [Reading.step, Reading.startAfter, if_pos h]
      cases octalDigit? c <;> rfl
    have hp : Reading.step .plain c = Reading.start c := rfl
    rw [scan, scan, hs, hp]
    rcases Reading.start c with _ | ⟨bytes, _ | next⟩
    case none      => rfl
    case some.none => rfl
    case some.some => exact (onto_onto [.ofNat value] bytes _).symm

theorem octalDigit?_digitChar (h : d < 8) : octalDigit? d.digitChar = some d := by
  have : ∀ d < 8, octalDigit? (Nat.digitChar d) = some d := by decide
  exact this d h

theorem scan_octalDigits {d₁ d₂ d₃ : Nat} (h₁ : d₁ < 4) (h₂ : d₂ < 8) (h₃ : d₃ < 8)
    (cs : List Char) :
    scan .plain ('\\' :: [d₁, d₂, d₃].map Nat.digitChar ++ cs) =
      onto [.ofNat (64 * d₁ + 8 * d₂ + d₃)] (scan .plain cs) := by
  have hd₁ : Reading.step .escape d₁.digitChar = some ([], some (.octal 1 d₁)) := by
    rw [Reading.step, octalDigit?_digitChar (by omega)]
  have hd₂ : Reading.step (.octal 1 d₁) d₂.digitChar = some ([], some (.octal 2 (8 * d₁ + d₂))) := by
    rw [Reading.step, octalDigit?_digitChar h₂]
    rfl
  have hd₃ : Reading.step (.octal 2 (8 * d₁ + d₂)) d₃.digitChar =
      some ([], some (.octal 3 (64 * d₁ + 8 * d₂ + d₃))) := by
    have hv : 8 * (8 * d₁ + d₂) + d₃ = 64 * d₁ + 8 * d₂ + d₃ := by omega
    rw [Reading.step, octalDigit?_digitChar h₃, ← hv]
    rfl
  simp only [List.map_cons, List.map_nil, List.cons_append, List.nil_append]
  rw [scan_escape, scan_of_step hd₁, scan_of_step hd₂, scan_of_step hd₃, scan_octal (by omega)]
  simp only [onto_nil]

-- The three ways to write a byte.
theorem byteChars_cases (b : UInt8) :
    (∃ c, byteChars b = ['\\', c] ∧ octalDigit? c = none ∧ simpleEscapes.lookup c = some b) ∨
    (∃ c, byteChars b = [c] ∧ c ≠ '"' ∧ c ≠ '\\' ∧ c ≠ '?' ∧ plainByte? c = some b) ∨
    byteChars b = '\\' :: [b.toNat / 64, b.toNat / 8 % 8, b.toNat % 8].map Nat.digitChar := by
  unfold byteChars
  split_ifs with h₁ h₂ h₃ h₄ h₅ h₆ h₇
  all_goals try exact .inl ⟨_, rfl, rfl, ‹b = _› ▸ rfl⟩
  · have hl : 0x20 ≤ b.toNat := h₇.1
    have hu : b.toNat ≤ 0x7e := h₇.2
    have hv : b.toNat.isValidChar := .inl (by omega)
    have hc : (Char.ofNat b.toNat).toNat = b.toNat := by
      rw [Char.ofNat, dif_pos hv]
      rfl
    have hr : ' ' ≤ Char.ofNat b.toNat ∧ Char.ofNat b.toNat ≤ '~' :=
      ⟨hl.trans_eq hc.symm, hc.trans_le hu⟩
    refine .inr <| .inl ⟨_, rfl, fun h => ?_, fun h => ?_, fun h => ?_, ?_⟩
    · exact h₂ <| UInt8.toNat_inj.mp <| hc.symm.trans (congrArg Char.toNat h)
    · exact h₁ <| UInt8.toNat_inj.mp <| hc.symm.trans (congrArg Char.toNat h)
    · exact h₃ <| UInt8.toNat_inj.mp <| hc.symm.trans (congrArg Char.toNat h)
    · rw [plainByte?, if_pos hr, hc, UInt8.ofNat_toNat]
  · exact .inr <| .inr rfl

-- Every byte is written so that it is read back, whatever follows it.
theorem scan_byteChars (b : UInt8) (cs : List Char) :
    scan .plain (byteChars b ++ cs) = onto [b] (scan .plain cs) := by
  rcases byteChars_cases b with ⟨c, h, ho, hs⟩ | ⟨c, h, hq, hb, -, hp⟩ | h <;> rw [h]
  · exact scan_simple ho hs cs
  · exact scan_plain hq hb hp cs
  · have hb := b.toNat_lt
    have hv : 64 * (b.toNat / 64) + 8 * (b.toNat / 8 % 8) + b.toNat % 8 = b.toNat := by omega
    rw [scan_octalDigits (by omega) (by omega) (by omega), hv, UInt8.ofNat_toNat]

theorem scan_flatMap_byteChars (bytes : List UInt8) (rest : List Char) :
    scan .plain (bytes.flatMap byteChars ++ '"' :: rest) = some (bytes, rest) := by
  induction bytes
  case nil => rfl
  case cons b bytes hi =>
    rw [List.flatMap_cons, List.append_assoc, scan_byteChars, hi]
    rfl

end Scan

-- A literal at the start of a text: its bytes, and what follows it.
def read? : List Char → Option (List UInt8 × List Char)
  | '"' :: rest => scan .plain rest
  | _           => none

-- The literal of a text holds its bytes, and nothing after it belongs to it.
theorem read?_stringLiteral (s : String) (rest : List Char) :
    read? ((stringLiteral s).toList ++ rest) = some (utf8 s, rest) := by
  have h : (stringLiteral s).toList ++ rest =
      '"' :: ((utf8 s).flatMap byteChars ++ '"' :: rest) := by
    simp [stringLiteral, utf8]
  rw [h, read?, scan_flatMap_byteChars]

-- The closing quote ends a literal, whatever stands after it.
theorem scan_append {r : Reading} {cs rest : List Char} {bytes : List UInt8}
    (h : scan r cs = some (bytes, rest)) (more : List Char) :
    scan r (cs ++ more) = some (bytes, rest ++ more) := by
  induction cs generalizing r bytes
  case nil => contradiction
  case cons c cs ih =>
    rw [List.cons_append]
    unfold scan at h ⊢
    generalize r.step c = result at h ⊢
    rcases result with _ | ⟨first, _ | next⟩
    case none => contradiction
    case some.none =>
      cases h
      rfl
    case some.some =>
      obtain ⟨⟨others, _⟩, hr, he⟩ := Option.map_eq_some_iff.mp h
      cases he
      exact congrArg (onto first) (ih hr)

theorem read?_append {cs rest : List Char} {bytes : List UInt8}
    (h : read? cs = some (bytes, rest)) (more : List Char) :
    read? (cs ++ more) = some (bytes, rest ++ more) := by
  unfold read? at h
  split at h
  case h_1 => exact scan_append h more
  case h_2 => contradiction

-- A literal has only characters that stand for themselves, and no question mark after another one.
structure Tame (cs : List Char) : Prop where
  printable : ∀ c ∈ cs, ' ' ≤ c ∧ c ≤ '~'
  single    : cs.IsChain fun c d => ¬(c = '?' ∧ d = '?')

theorem Tame.append {cs ds : List Char} (h : Tame cs) (h' : Tame ds) (hd : ds.head? ≠ some '?') :
    Tame (cs ++ ds) where
  printable := List.forall_mem_append.mpr ⟨h.printable, h'.printable⟩
  single    := by
    refine List.isChain_append.mpr ⟨h.single, h'.single, ?_⟩
    rintro c - d hc ⟨-, rfl⟩
    exact hd hc

theorem printable_of_escape {c : Char} {b : UInt8} (h : simpleEscapes.lookup c = some b) :
    ' ' ≤ c ∧ c ≤ '~' := by
  have hp : simpleEscapes.all fun e => ' ' ≤ e.1 ∧ e.1 ≤ '~' := by decide
  obtain ⟨before, after, he, -⟩ := List.lookup_eq_some_iff.mp h
  have hm : (c, b) ∈ simpleEscapes := by simp [he]
  exact of_decide_eq_true (List.all_eq_true.mp hp _ hm)

theorem printable_digitChar {d : Nat} (h : d < 8) : ' ' ≤ d.digitChar ∧ d.digitChar ≤ '~' := by
  have : ∀ d < 8, ' ' ≤ Nat.digitChar d ∧ Nat.digitChar d ≤ '~' := by decide
  exact this d h

theorem tame_byteChars (b : UInt8) : Tame (byteChars b) ∧ (byteChars b).head? ≠ some '?' := by
  rcases byteChars_cases b with ⟨c, h, -, hs⟩ | ⟨c, h, -, -, hc, hp⟩ | h <;> rw [h]
  · exact ⟨⟨by simpa using printable_of_escape hs, by simp⟩, by simp⟩
  · have hp := (Option.ite_none_right_eq_some.mp hp).left
    exact ⟨⟨by simpa using hp, by simp⟩, by simpa using hc⟩
  · have hb := b.toNat_lt
    refine ⟨⟨List.forall_mem_cons.mpr ⟨by decide, List.forall_mem_map.mpr fun d hd => ?_⟩,
      by simp⟩, by simp⟩
    simp only [List.mem_cons, List.not_mem_nil, or_false] at hd
    exact printable_digitChar (by omega)

theorem tame_quote : Tame ['"'] where
  printable := by simp
  single    := by simp

theorem tame_flatMap_byteChars (bytes : List UInt8) :
    Tame (bytes.flatMap byteChars ++ ['"']) ∧
      (bytes.flatMap byteChars ++ ['"']).head? ≠ some '?' := by
  induction bytes
  case nil => exact ⟨tame_quote, by simp⟩
  case cons b bytes ih =>
    obtain ⟨ht, hq⟩ := ih
    obtain ⟨hb, hq'⟩ := tame_byteChars b
    rw [List.flatMap_cons, List.append_assoc]
    refine ⟨hb.append ht hq, ?_⟩
    rw [List.head?_append]
    generalize (byteChars b).head? = first at hq'
    cases first
    case none => exact hq
    case some => exact hq'

theorem tame_stringLiteral (s : String) : Tame (stringLiteral s).toList := by
  have h : (stringLiteral s).toList = ['"'] ++ ((utf8 s).flatMap byteChars ++ ['"']) := by
    simp [stringLiteral, utf8]
  obtain ⟨ht, hq⟩ := tame_flatMap_byteChars (utf8 s)
  rw [h]
  exact tame_quote.append ht hq

-- The literal of a text is of one line and all of it is needed, what it holds are the bytes of the
-- text, and no other text has the same.
theorem stringLiteral_exact (s : String) :
    (∀ c ∈ (stringLiteral s).toList, ' ' ≤ c ∧ c ≤ '~') ∧
    ¬['?', '?'] <:+: (stringLiteral s).toList ∧
    (∀ rest, read? ((stringLiteral s).toList ++ rest) = some (utf8 s, rest)) ∧
    (∀ start, start <+: (stringLiteral s).toList → (read? start).isSome →
      start = (stringLiteral s).toList) ∧
    ∀ t, stringLiteral t = stringLiteral s ↔ t = s := by
  have htame := tame_stringLiteral s
  have hread := read?_stringLiteral s
  refine ⟨htame.printable, fun h => ?_, hread, ?_, fun t => ⟨fun h => ?_, fun h => by rw [h]⟩⟩
  · obtain ⟨before, after, he⟩ := h
    have he : (stringLiteral s).toList = before ++ '?' :: '?' :: after := by simp [← he]
    exact List.isChain_iff_forall_rel_of_append_cons_cons.mp htame.single he ⟨rfl, rfl⟩
  · rintro start ⟨more, hm⟩ h
    obtain ⟨⟨bytes, rest⟩, hr⟩ := Option.isSome_iff_exists.mp h
    have hall := hread []
    rw [List.append_nil, ← hm, read?_append hr] at hall
    have hmore := (List.append_eq_nil_iff.mp (Prod.mk.inj (Option.some.inj hall)).right).right
    rw [← hm, hmore, List.append_nil]
  · have ht := read?_stringLiteral t []
    rw [h, hread] at ht
    exact utf8_injective (Prod.mk.inj (Option.some.inj ht)).left.symm

-- An escape before a digit, question marks, a backslash before a quote, and a letter of two bytes.
theorem stringLiteral_exact_tricky :
    stringLiteral "\x017??\\\"é" = "\"\\0017\\?\\?\\\\\\\"\\303\\251\"" ∧ (' ' ≤ '?' ∧ '?' ≤ '~') ∧
      read? "\"\\0017\\?\\?\\\\\\\"\\303\\251\";".toList =
        some ([1, 0x37, 0x3f, 0x3f, 0x5c, 0x22, 0xc3, 0xa9], [';']) := by
  have hu : utf8 "\x017??\\\"é" = [1, 0x37, 0x3f, 0x3f, 0x5c, 0x22, 0xc3, 0xa9] := by
    rw [utf8_eq_flatMap]
    decide
  have hl : stringLiteral "\x017??\\\"é" = "\"\\0017\\?\\?\\\\\\\"\\303\\251\"" := by
    rw [stringLiteral, ← utf8, hu]
    decide
  obtain ⟨hp, -, hr, -⟩ := stringLiteral_exact "\x017??\\\"é"
  rw [hl] at hp hr
  rw [hu] at hr
  exact ⟨hl, hp '?' (by simp), hr [';']⟩

end StringLiteral

end AddonBinding.Source
