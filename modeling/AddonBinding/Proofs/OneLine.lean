import AddonBinding.Proofs.Naming
import AddonBinding.Source.Unit
import Mathlib.Data.List.Basic

namespace AddonBinding

namespace Text

-- No line break in the text, so it stays on the line where it is put.
def OneLine (s : String) : Prop :=
  '\n' ∉ s.toList

instance (s : String) : Decidable (OneLine s) :=
  inferInstanceAs (Decidable ('\n' ∉ s.toList))

section OneLine

variable {s t : String} {cs : List Char} {l : List String}

@[simp]
theorem oneLine_append : OneLine (s ++ t) ↔ OneLine s ∧ OneLine t := by
  simp [OneLine]

@[simp]
theorem oneLine_ofList : OneLine (String.ofList cs) ↔ '\n' ∉ cs := by
  simp [OneLine]

theorem OneLine.intercalate (hs : OneLine s) (hl : ∀ t ∈ l, OneLine t) :
    OneLine (s.intercalate l) := by
  induction l
  case nil => simp [OneLine]
  case cons t l hi =>
    have ⟨ht, hl⟩ := List.forall_mem_cons.mp hl
    cases l
    case nil  => simpa using ht
    case cons => simpa [hs, ht] using hi hl

theorem digitChar_ne (n : Nat) : Nat.digitChar n ≠ '\n' := by
  grind [Nat.digitChar]

theorem exists_digitChar {base fuel n : Nat} {c : Char} (h : c ∈ Nat.toDigitsCore base fuel n cs) :
    c ∈ cs ∨ ∃ d, c = Nat.digitChar (d % base) := by
  induction fuel generalizing n cs
  case zero => exact .inl h
  case succ fuel hi =>
    rw [Nat.toDigitsCore] at h
    have hc : c ∈ Nat.digitChar (n % base) :: cs → c ∈ cs ∨ ∃ d, c = Nat.digitChar (d % base) := by
      intro h
      rcases List.mem_cons.mp h with h | h
      · exact .inr ⟨_, h⟩
      · exact .inl h
    split at h
    case isTrue  => exact hc h
    case isFalse => exact (hi h).elim hc .inr

@[simp]
theorem not_mem_toDigits (base n : Nat) : '\n' ∉ Nat.toDigits base n := by
  intro h
  rcases exists_digitChar h with h | ⟨d, h⟩
  · contradiction
  · exact digitChar_ne _ h.symm

@[simp]
theorem oneLine_natural (n : Nat) : OneLine n.repr :=
  oneLine_ofList.mpr (not_mem_toDigits 10 n)

@[simp]
theorem oneLine_integer (n : Int) : OneLine n.repr := by
  cases n
  case ofNat n   => exact oneLine_natural n
  case negSucc n => exact oneLine_append.mpr ⟨by decide, oneLine_natural (n + 1)⟩

theorem not_mem_quoteChar (c : Char) : '\n' ∉ quoteChar c := by
  by_cases h : c = '\n'
  case pos => subst h; decide
  case neg =>
    unfold quoteChar
    repeat' split
    all_goals simp [hex, Ne.symm h]

theorem oneLine_quote (s : String) : OneLine (quote s) := by
  simp [OneLine, quote, not_mem_quoteChar]

theorem mem_of_mem_trimEnd {p : Char → Bool} {c : Char} (h : c ∈ trimEnd p cs) : c ∈ cs := by
  rw [trimEnd, List.mem_reverse] at h
  exact List.mem_reverse.mp <| (List.dropWhile_sublist p).mem h

end OneLine

section Lines

variable {cs read rest : List Char} {l : List Char} {ls : List String}

theorem linesFrom_append (h : '\n' ∉ l) :
    linesFrom read (l ++ '\n' :: rest) = (read.reverse ++ l) :: linesFrom [] rest := by
  induction l generalizing read
  case nil => simp [linesFrom]
  case cons c l hi =>
    have ⟨hc, hl⟩ : '\n' ≠ c ∧ '\n' ∉ l := by simpa using h
    simp [linesFrom, hc.symm, hi hl]

theorem not_mem_linesFrom (hr : '\n' ∉ read) : ∀ l ∈ linesFrom read cs, '\n' ∉ l := by
  induction cs generalizing read
  case nil =>
    unfold linesFrom
    split <;> simp [hr]
  case cons c cs hi =>
    unfold linesFrom
    split
    case isTrue    => exact List.forall_mem_cons.mpr ⟨by simp [hr], hi List.not_mem_nil⟩
    case isFalse h => exact hi (by simp [hr, Ne.symm h])

theorem oneLine_of_mem_lines {s l : String} (h : l ∈ lines s) : OneLine l := by
  have ⟨cs, hc, he⟩ := List.mem_map.mp h
  rw [← he, oneLine_ofList]
  exact not_mem_linesFrom List.not_mem_nil cs hc

-- Lines are told apart by the breaks that end them, so a text that is written line by line is read
-- back as the same lines.
theorem lines_unlines (h : ∀ l ∈ ls, OneLine l) : lines (Source.unlines ls) = ls := by
  induction ls
  case nil => rfl
  case cons l ls hi =>
    have ⟨hl, hls⟩ := List.forall_mem_cons.mp h
    have he : (Source.unlines (l :: ls)).toList = l.toList ++ '\n' :: (Source.unlines ls).toList := by
      simp [Source.unlines]
    rw [lines, he, linesFrom_append hl, List.map_cons]
    exact congrArg₂ List.cons String.ofList_toList (hi hls)

end Lines

end Text

theorem Numeral.not_mem_chars (plus : Bool) (n : Numeral) : '\n' ∉ n.chars plus := by
  have hn (k : Nat) : '\n' ∉ natChars k := Text.not_mem_toDigits 10 k
  have hf : '\n' ∉ n.fraction.map Nat.digitChar := by
    intro h
    have ⟨d, _, hd⟩ := List.mem_map.mp h
    exact Text.digitChar_ne d hd
  have he : '\n' ∉ n.exponent.elim [] (exponentChars plus) := by
    cases n.exponent
    case none   => exact List.not_mem_nil
    case some e =>
      simp only [Option.elim_some, exponentChars, List.mem_cons, List.mem_append, not_or]
      exact ⟨by decide, by split <;> [decide; split <;> decide], hn _⟩
  simp only [chars, List.mem_append, not_or]
  exact ⟨⟨⟨by split <;> decide, hn _⟩, by split <;> simp_all⟩, he⟩

open Text

theorem NumberFormat.oneLine_explicit (x : Double) : OneLine (explicit.write x) := by
  cases x
  case nan              => decide
  case infinite minus   => cases minus <;> decide
  case finite minus k _ => exact oneLine_ofList.mpr (Numeral.not_mem_chars _ _)

theorem NativeValue.oneLine_describe (v : NativeValue) : OneLine v.describe := by
  cases v
  case text s     => exact oneLine_quote s
  case integer n  => exact oneLine_integer _
  case unsigned n => exact oneLine_natural _
  case float x    => exact NumberFormat.oneLine_explicit x
  case boolean b  => cases b <;> decide

theorem ScalarType.oneLine_tag (t : ScalarType) : OneLine t.tag := by
  have h : ∀ t ∈ all, OneLine t.tag := by decide +kernel
  exact h t t.mem_all

theorem ScalarType.oneLine_camelName (t : ScalarType) : OneLine t.camelName := by
  have h : ∀ t ∈ all, OneLine t.camelName := by decide +kernel
  exact h t t.mem_all

namespace Source

theorem not_mem_byteChars (b : UInt8) : '\n' ∉ byteChars b := by
  have h : ∀ n < 256, '\n' ∉ byteChars (.ofNat n) := by decide +kernel
  simpa using h b.toNat b.toNat_lt

theorem oneLine_stringLiteral (s : String) : OneLine (stringLiteral s) := by
  simp [OneLine, stringLiteral, not_mem_byteChars]

end Source

end AddonBinding
