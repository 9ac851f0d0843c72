import AddonBinding.Identifier
import AddonBinding.ScalarType
import Mathlib.Data.List.Basic

namespace AddonBinding

namespace Text

-- The text has exactly these words, with white space before, between and after them. What follows a
-- word is empty or begins with white space, which is what keeps two words apart.
inductive Spelled : List (List Char) → List Char → Prop
  | blank {cs} (h : ∀ c ∈ cs, isSpace c) : Spelled [] cs
  | word {blank word words rest} (hb : ∀ c ∈ blank, isSpace c) (hs : ∀ c ∈ rest.head?, isSpace c)
      (s : Spelled words rest) : Spelled (word :: words) (blank ++ (word ++ rest))

structure IsWord (word : List Char) : Prop where
  nonempty : word ≠ []
  solid    : ∀ c ∈ word, isSpace c = false

variable {c : Char} {cs blank w rest carry : List Char} {ws : List (List Char)}

namespace Spelled

theorem cons_space (h : isSpace c) (s : Spelled ws cs) : Spelled ws (c :: cs) := by
  cases s
  case blank hb => exact .blank <| List.forall_mem_cons.mpr ⟨h, hb⟩
  case word hb hs s =>
    rw [← List.cons_append]
    exact .word (List.forall_mem_cons.mpr ⟨h, hb⟩) hs s

theorem cons_word (hs : ∀ c ∈ rest.head?, isSpace c) (s : Spelled ws rest) :
    Spelled (w :: ws) (w ++ rest) :=
  @word [] _ _ _ (by simp) hs s

end Spelled

-- The carried start of a word has been read already, so it stands in front of the text.
theorem spelled_wordsFrom (carry cs : List Char) :
    Spelled (wordsFrom carry cs) (carry.reverse ++ cs) := by
  induction cs generalizing carry <;> simp only [wordsFrom]
  case nil =>
    split
    case isTrue h  => exact .blank (by simp [List.isEmpty_iff.mp h])
    case isFalse h => exact .cons_word (by simp) (.blank (by simp))
  case cons c cs hi =>
    have hi₀ : Spelled (wordsFrom [] cs) cs := hi []
    split
    case isTrue hc =>
      split
      case isTrue h  => simpa [List.isEmpty_iff.mp h] using hi₀.cons_space hc
      case isFalse h => exact .cons_word (by simp [hc]) (hi₀.cons_space hc)
    case isFalse hc => simpa using hi (c :: carry)

theorem wordsFrom_blank_append (h : ∀ c ∈ blank, isSpace c) (cs : List Char) :
    wordsFrom [] (blank ++ cs) = wordsFrom [] cs := by
  induction blank
  case nil => rfl
  case cons c blank hi =>
    have ⟨hc, hb⟩ := List.forall_mem_cons.mp h
    simp [wordsFrom, hc, hi hb]

-- A word is carried until white space or the end of the text closes it.
theorem wordsFrom_word_append (hw : ∀ c ∈ w, isSpace c = false) (hs : ∀ c ∈ rest.head?, isSpace c)
    (hn : carry ≠ [] ∨ w ≠ []) :
    wordsFrom carry (w ++ rest) = (carry.reverse ++ w) :: wordsFrom [] rest := by
  induction w generalizing carry
  case nil =>
    replace hn : carry ≠ [] := by simpa using hn
    cases rest
    case nil       => simp [wordsFrom, hn]
    case cons c cs => simp [wordsFrom, hn, hs c (by simp)]
  case cons c w hi =>
    have ⟨hc, hw⟩ := List.forall_mem_cons.mp hw
    have hi := hi hw (.inl <| List.cons_ne_nil c carry)
    simp [wordsFrom, hc, hi]

theorem Spelled.wordsFrom_eq (hw : ∀ w ∈ ws, IsWord w) (s : Spelled ws cs) :
    wordsFrom [] cs = ws := by
  induction s
  case blank cs h => simpa [wordsFrom] using wordsFrom_blank_append h []
  case word hb hs s hi =>
    have ⟨hw, hws⟩ := List.forall_mem_cons.mp hw
    rw [wordsFrom_blank_append hb, wordsFrom_word_append hw.solid hs (.inr hw.nonempty), hi hws]
    rfl

theorem words_eq_iff {s : String} {ws : List String} (hw : ∀ w ∈ ws, IsWord w.toList) :
    words s = ws ↔ Spelled (ws.map String.toList) s.toList := by
  constructor <;> intro h
  case mp  => simpa [← h, words] using spelled_wordsFrom [] s.toList
  case mpr => simp [words, h.wordsFrom_eq (by simpa using hw)]

end Text

namespace ScalarType

variable {t u : ScalarType} {tag : String}

-- A tag names a type if it has the words of the type's own tag, however they are spaced.
def Names (tag : String) (t : ScalarType) : Prop :=
  Text.Spelled (t.tagWords.map String.toList) tag.toList

theorem mem_all (t : ScalarType) : t ∈ all := by
  cases t
  case text kind => cases kind <;> decide
  case integer t =>
    obtain ⟨width, signed⟩ := t
    cases width <;> cases signed <;> decide
  case float t =>
    obtain ⟨single, unrestricted⟩ := t
    cases single <;> cases unrestricted <;> decide
  case boolean => decide

theorem isWord_tagWords {w : String} (h : w ∈ t.tagWords) : Text.IsWord w.toList := by
  have ha : all.all fun t => t.tagWords.all fun w =>
      !w.toList.isEmpty && w.toList.all (!Text.isSpace ·) := rfl
  have hw := List.all_eq_true.mp (List.all_eq_true.mp ha t t.mem_all) w h
  simp only [Bool.and_eq_true, Bool.not_eq_true', List.isEmpty_eq_false_iff, List.all_eq_true] at hw
  exact ⟨hw.left, hw.right⟩

theorem tagWords_injective (h : t.tagWords = u.tagWords) : t = u := by
  have : ∀ t ∈ all, ∀ u ∈ all, t.tagWords = u.tagWords → t = u := by decide
  exact this t t.mem_all u u.mem_all h

theorem ofTag?_eq_some_iff : ofTag? tag = some t ↔ Names tag t := by
  rw [Names, ← Text.words_eq_iff fun _ => isWord_tagWords]
  constructor
  case mp =>
    intro h
    have := List.find?_some h
    simp_all
  case mpr =>
    intro h
    have ⟨u, hu⟩ : ∃ u, ofTag? tag = some u := by
      apply Option.isSome_iff_exists.mp
      apply List.find?_isSome.mpr
      exact ⟨t, t.mem_all, beq_iff_eq.mpr h.symm⟩
    have := List.find?_some hu
    rw [hu, tagWords_injective (t := u) (u := t) (by simp_all)]

theorem Names.unique (h₁ : Names tag t) (h₂ : Names tag u) : t = u :=
  Option.some.inj <| (ofTag?_eq_some_iff.mpr h₁).symm.trans (ofTag?_eq_some_iff.mpr h₂)

end ScalarType

namespace Identifier

variable {c : Char} {name : String}

def IsDigit (c : Char) : Prop :=
  '0' ≤ c ∧ c ≤ '9'

def IsNameStart (c : Char) : Prop :=
  ('a' ≤ c ∧ c ≤ 'z') ∨ ('A' ≤ c ∧ c ≤ 'Z') ∨ c = '_'

structure WellFormed (name : String) : Prop where
  nonempty   : name.toList ≠ []
  characters : ∀ c ∈ name.toList, IsNameStart c ∨ IsDigit c
  start      : ∀ c ∈ name.toList.head?, ¬IsDigit c

-- What a declaration can be called in the generated source.
structure Usable (name : String) : Prop where
  wellFormed : WellFormed name
  unreserved : isReserved name = false

theorem isDigit_iff : c.isDigit ↔ IsDigit c := by
  simp [Char.isDigit, IsDigit, Char.le_def]

theorem isLetter_iff : isLetter c ↔ IsNameStart c := by
  have h : isLetter c = (decide ('A' ≤ c ∧ c ≤ 'Z') ||
      (decide ('a' ≤ c) && decide (c ≤ 'z')) || c == '_') := rfl
  simp only [h, IsNameStart, Bool.or_eq_true, Bool.and_eq_true, decide_eq_true_eq, beq_iff_eq]
  rw [or_assoc, or_left_comm]

theorem IsNameStart.not_isDigit (h : IsNameStart c) : ¬IsDigit c := by
  intro ⟨_, hd⟩
  rcases h with ⟨h, _⟩ | ⟨h, _⟩ | rfl
  · exact absurd (Char.le_trans h hd) (by decide)
  · exact absurd (Char.le_trans h hd) (by decide)
  · exact absurd hd (by decide)

theorem isValid_iff : isValid name ↔ WellFormed name := by
  unfold isValid
  split
  case _ h => exact ⟨nofun, fun w => absurd h w.nonempty⟩
  case _ c rest h =>
    simp only [Bool.and_eq_true, List.all_eq_true, Bool.or_eq_true, isLetter_iff, isDigit_iff]
    constructor
    case mp =>
      intro ⟨hc, hr⟩
      refine ⟨by simp [h], ?_, ?_⟩ <;> simp only [h]
      · exact List.forall_mem_cons.mpr ⟨.inl hc, hr⟩
      · simp [hc.not_isDigit]
    case mpr =>
      intro w
      have hw := w.characters
      have hs := w.start
      rw [h] at hw hs
      have ⟨hc, hr⟩ := List.forall_mem_cons.mp hw
      exact ⟨hc.resolve_right (hs c (by simp)), hr⟩

theorem WellFormed.not_mem (w : WellFormed name) (h : (isLetter c || c.isDigit) = false) :
    c ∉ name.toList := by
  intro hc
  have hw : isLetter c ∨ c.isDigit := by
    rw [isLetter_iff, isDigit_iff]
    exact w.characters c hc
  rw [Bool.or_eq_false_iff] at h
  simp [h] at hw

theorem after?_eq_some_iff {start : String} {cs rest : List Char} :
    after? start cs = some rest ↔ start.toList ++ rest = cs :=
  List.isPrefixOf?_eq_some_iff_append_eq

theorem after?_append (start : String) (cs : List Char) :
    after? start (start.toList ++ cs) = some cs :=
  after?_eq_some_iff.mpr rfl

end Identifier

end AddonBinding
