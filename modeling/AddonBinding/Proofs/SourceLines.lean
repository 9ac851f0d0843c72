import AddonBinding.Proofs.OneLine

namespace AddonBinding.Source

open Text

namespace TypeName

-- All that a type takes over into its text is its names.
@[simp]
def isPlain : TypeName → Bool
  | .named name                                 => OneLine name
  | .pointer target | .constantReference target => target.isPlain
  | _                                           => true

theorem oneLine_render {t : TypeName} (h : t.isPlain) : OneLine t.render := by
  induction t
  case word signed bits =>
    refine oneLine_append.mpr ⟨oneLine_append.mpr ⟨?_, oneLine_natural bits⟩, by decide⟩
    split <;> decide
  case named               => exact of_decide_eq_true h
  case pointer hi          => exact oneLine_append.mpr ⟨hi h, by decide⟩
  case constantReference hi =>
    exact oneLine_append.mpr ⟨oneLine_append.mpr ⟨by decide, hi h⟩, by decide⟩
  all_goals decide

theorem isPlain_storage (t : ScalarType) : (storage t).isPlain := by
  have h : ∀ t ∈ ScalarType.all, (storage t).isPlain := by decide
  exact h t t.mem_all

end TypeName

namespace Expr

mutual

-- The names in an expression, which are written as they are, have no line break. Texts and values
-- are written as literals.
@[simp]
def isPlain : Expr → Bool
  | .name n                                              => OneLine n
  | .call f args                                         => f.isPlain && allPlain args
  | .dot e m | .arrow e m                                => e.isPlain && OneLine m
  | .negate e | .parens e                                => e.isPlain
  | .dereference e | .addressOf e | .not e               => e.isPlain
  | .index a b | .binary _ a b                           => a.isPlain && b.isPlain
  | .conditional c a b                                   => c.isPlain && a.isPlain && b.isPlain
  | .cast t e                                            => t.isPlain && e.isPlain
  | .new c                                               => OneLine c
  | _                                                    => true

@[simp]
def allPlain : List Expr → Bool
  | []        => true
  | e :: rest => e.isPlain && allPlain rest

end

theorem not_mem_hexDigits (width n : Nat) : '\n' ∉ hexDigits width n := by
  have hd : ∀ d < 16, (Nat.digitChar d).toUpper ≠ '\n' := by decide
  intro h
  rcases List.mem_append.mp h with h | h
  · exact absurd (List.eq_of_mem_replicate h) (by decide)
  · have ⟨c, hc, he⟩ := List.mem_map.mp h
    rcases exists_digitChar hc with hc | ⟨d, rfl⟩
    · contradiction
    · exact hd _ (Nat.mod_lt d (by decide)) he

theorem BinaryOperator.oneLine_render (op : BinaryOperator) : OneLine op.render := by
  cases op <;> decide

mutual

theorem oneLine_render : (e : Expr) → e.isPlain → OneLine e.render
  | .name _, h => of_decide_eq_true h
  | .boolean b, _ => by cases b <;> decide
  | .integer n suffix, _ => by
    refine oneLine_append.mpr ⟨oneLine_natural n, ?_⟩
    rcases suffix with ⟨_ | _, _ | _⟩ <;> decide
  | .hex width n, _ => by
    simp +decide [render, not_mem_hexDigits]
  | .decimal n single, _ => by
    refine oneLine_append.mpr ⟨oneLine_ofList.mpr (n.not_mem_chars false), ?_⟩
    split <;> decide
  | .text s, _ => oneLine_stringLiteral s
  | .call f args, h => by
    have ⟨hf, ha⟩ := Bool.and_eq_true_iff.mp h
    have ha := OneLine.intercalate (s := ", ") (by decide) (oneLine_renderArgs args ha)
    simp +decide [render, oneLine_render f hf, ha]
  | .dot e m, h | .arrow e m, h => by
    have ⟨he, hm⟩ := Bool.and_eq_true_iff.mp h
    simp +decide [render, oneLine_render e he, of_decide_eq_true hm]
  | .dereference e, h | .addressOf e, h | .not e, h | .negate e, h | .parens e, h => by
    simp +decide [render, oneLine_render e h]
  | .index a b, h | .binary _ a b, h => by
    have ⟨ha, hb⟩ := Bool.and_eq_true_iff.mp h
    simp +decide [render, oneLine_render a ha, oneLine_render b hb, BinaryOperator.oneLine_render]
  | .conditional c a b, h => by
    have ⟨hc, hb⟩ := Bool.and_eq_true_iff.mp h
    have ⟨hc, ha⟩ := Bool.and_eq_true_iff.mp hc
    simp +decide [render, oneLine_render c hc, oneLine_render a ha, oneLine_render b hb]
  | .cast t e, h => by
    have ⟨ht, he⟩ := Bool.and_eq_true_iff.mp h
    simp +decide [render, t.oneLine_render ht, oneLine_render e he]
  | .new c, h => by
    simp +decide [render, of_decide_eq_true h]

theorem oneLine_renderArgs : (args : List Expr) → allPlain args →
    ∀ t ∈ renderArgs args, OneLine t
  | [], _ => nofun
  | e :: rest, h => by
    have ⟨he, hr⟩ := Bool.and_eq_true_iff.mp h
    exact List.forall_mem_cons.mpr ⟨oneLine_render e he, oneLine_renderArgs rest hr⟩

end

@[simp]
theorem isPlain_withSign (negative : Bool) (e : Expr) : (e.withSign negative).isPlain = e.isPlain := by
  cases negative <;> rfl

@[simp]
theorem isPlain_whole (n : Int) : (whole n).isPlain := by
  simp [whole]

@[simp]
theorem isPlain_ofNative (t : ScalarType) (v : NativeValue) : (ofNative t v).isPlain := by
  have hd (t : FloatType) (x : Double) : (ofDouble t x).isPlain := by
    have hl : ∀ single unrestricted, ∀ name ∈ ["quiet_NaN", "infinity"],
        (numericLimit (.storage (.float ⟨single, unrestricted⟩)) name).isPlain := by
      decide
    cases x
    case nan      => exact hl _ _ _ (by decide)
    case infinite => simpa [ofDouble] using hl t.single t.unrestricted _ (by decide)
    case finite   => simp [ofDouble]
  cases v
  case text | boolean | unsigned => rfl
  case integer n                 => simp only [ofNative, ofInteger]; split <;> simp
  case float x                   => simp only [ofNative]; split <;> exact hd ..

end Expr

-- The line belongs to what a line before it has begun.
structure Inner (l : String) : Prop where
  oneLine  : OneLine l
  indented : l.toList.head? = some ' '

theorem inner_line {t : String} (h : OneLine t) (n : Nat) : Inner (line (n + 1) t) where
  oneLine  := oneLine_append.mpr ⟨by simp [OneLine], h⟩
  indented := by simp [line, Nat.mul_add, List.replicate_succ]

namespace Stmt

mutual

@[simp]
def isPlain : Stmt → Bool
  | .declare _ type name value       =>
    type.isPlain && OneLine name && value.all Expr.isPlain
  | .construct _ type name args      => type.isPlain && OneLine name && Expr.allPlain args
  | .assign a b | .addAssign a b     => a.isPlain && b.isPlain
  | .evaluate e                      => e.isPlain
  | .leave value                     => value.all Expr.isPlain
  | .exitSwitch                      => true
  | .choose c yes no                 => c.isPlain && allPlain yes && allPlain no
  | .loop c body                     => c.isPlain && allPlain body
  | .count type name first last body =>
    type.isPlain && OneLine name && first.isPlain && last.isPlain && allPlain body
  | .select e _ hit other            => e.isPlain && allPlain hit && allPlain other

@[simp]
def allPlain : List Stmt → Bool
  | []        => true
  | s :: rest => s.isPlain && allPlain rest

end

theorem oneLine_constantMark (constant : Bool) : OneLine (constantMark constant) := by
  cases constant <;> decide

theorem oneLine_elim {start : String} (hs : OneLine start) {value : Option Expr}
    (h : value.all Expr.isPlain) : OneLine (value.elim "" fun e => start ++ e.render) := by
  cases value
  case none   => exact (by decide : OneLine "")
  case some e => exact oneLine_append.mpr ⟨hs, e.oneLine_render h⟩

mutual

-- The lines of a statement are as deep as the statement, or deeper.
theorem inner_linesAfter {lead : String} (hl : OneLine lead) (n : Nat) : (s : Stmt) → s.isPlain →
    ∀ l ∈ s.linesAfter lead (n + 1), Inner l
  | .declare constant type name value, h => by
    simp only [isPlain, Bool.and_eq_true, decide_eq_true_eq] at h
    refine List.forall_mem_singleton.mpr <| inner_line ?_ n
    simp +decide [oneLine_constantMark, type.oneLine_render h.1.1, h.1.2, oneLine_elim _ h.2]
  | .construct constant type name args, h => by
    simp only [isPlain, Bool.and_eq_true, decide_eq_true_eq] at h
    have ha := OneLine.intercalate (s := ", ") (by decide) (Expr.oneLine_renderArgs args h.2)
    refine List.forall_mem_singleton.mpr <| inner_line ?_ n
    simp +decide [oneLine_constantMark, type.oneLine_render h.1.1, h.1.2, ha]
  | .assign a b, h | .addAssign a b, h => by
    have ⟨ha, hb⟩ := Bool.and_eq_true_iff.mp h
    refine List.forall_mem_singleton.mpr <| inner_line ?_ n
    simp +decide [a.oneLine_render ha, b.oneLine_render hb]
  | .evaluate e, h => by
    refine List.forall_mem_singleton.mpr <| inner_line ?_ n
    simp +decide [e.oneLine_render h]
  | .leave value, h => by
    refine List.forall_mem_singleton.mpr <| inner_line ?_ n
    simp +decide [oneLine_elim _ h]
  | .exitSwitch, _ => List.forall_mem_singleton.mpr <| inner_line (by decide) n
  | .choose c yes no, h => by
    simp only [isPlain, Bool.and_eq_true] at h
    have hc : OneLine (lead ++ "if (" ++ c.render ++ ") \x7b") := by
      simp +decide [hl, c.oneLine_render h.1.1]
    simp only [linesAfter, List.mem_append, List.mem_singleton]
    rintro l (((rfl | hm) | rfl) | hm)
    · exact inner_line hc n
    · exact inner_blockLines (n + 1) yes h.1.2 l hm
    · exact inner_line (by decide) n
    · exact inner_elseLines n no h.2 l hm
  | .loop c body, h => by
    have ⟨hc, hb⟩ := Bool.and_eq_true_iff.mp h
    simp only [linesAfter, List.mem_append, List.mem_singleton]
    rintro l ((rfl | hm) | rfl)
    · exact inner_line (by simp +decide [c.oneLine_render hc]) n
    · exact inner_blockLines (n + 1) body hb l hm
    · exact inner_line (by decide) n
  | .count type name first last body, h => by
    simp only [isPlain, Bool.and_eq_true, decide_eq_true_eq] at h
    obtain ⟨⟨⟨⟨ht, hn⟩, hf⟩, hm⟩, hb⟩ := h
    simp only [linesAfter, List.mem_append, List.mem_singleton]
    rintro l ((rfl | hl) | rfl)
    · apply inner_line
      simp +decide [type.oneLine_render ht, hn, first.oneLine_render hf, last.oneLine_render hm]
    · exact inner_blockLines (n + 1) body hb l hl
    · exact inner_line (by decide) n
  | .select e labels hit other, h => by
    simp only [isPlain, Bool.and_eq_true] at h
    simp only [linesAfter, List.mem_append, List.mem_singleton, List.mem_map]
    rintro l (((((rfl | ⟨k, _, rfl⟩) | hm) | rfl) | hm) | rfl)
    · exact inner_line (by simp +decide [e.oneLine_render h.1.1]) n
    · exact inner_line (by simp +decide [Expr.not_mem_hexDigits]) (n + 1)
    · exact inner_blockLines (n + 2) hit h.1.2 l hm
    · exact inner_line (by decide) (n + 1)
    · exact inner_blockLines (n + 2) other h.2 l hm
    · exact inner_line (by decide) n

theorem inner_blockLines (n : Nat) : (body : List Stmt) → allPlain body →
    ∀ l ∈ blockLines (n + 1) body, Inner l
  | [], _ => nofun
  | s :: rest, h => by
    have ⟨hs, hr⟩ := Bool.and_eq_true_iff.mp h
    exact List.forall_mem_append.mpr
      ⟨inner_linesAfter (by decide) n s hs, inner_blockLines n rest hr⟩

theorem inner_elseLines (n : Nat) : (body : List Stmt) → allPlain body →
    ∀ l ∈ elseLines (n + 1) body, Inner l
  | [], _ => nofun
  | s :: rest, h => by
    have ⟨hs, hr⟩ := Bool.and_eq_true_iff.mp h
    rw [elseLines]
    split
    case isTrue  => exact inner_linesAfter (by decide) n s hs
    case isFalse =>
      simp only [List.mem_append, List.mem_singleton]
      rintro l (((rfl | hm) | hm) | rfl)
      · exact inner_line (by decide) n
      · exact inner_linesAfter (by decide) (n + 1) s hs l hm
      · exact inner_blockLines (n + 1) rest hr l hm
      · exact inner_line (by decide) n

end

end Stmt

end AddonBinding.Source
